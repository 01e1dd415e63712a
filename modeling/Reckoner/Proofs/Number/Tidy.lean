import Reckoner.Proofs.Number.Positional

/-!
# Tidy positional texts

A tidy text of a number has no needless zero: its integer part starts with a zero only if it is that zero, and its fraction
part, if there is one, is not empty and does not end in a zero. The positional text of a positive decimal number is tidy, and
so is that of a finite double behind its sign.
-/

namespace Reckoner

open Literal (isDigit)

set_option autoImplicit false

/-! ## Tidy texts -/

/-- Digits without needless zeros in front. -/
structure TidyWhole (text : List Char) : Prop where
  digits : ∀ c ∈ text, isDigit c = true
  nonempty : text ≠ []
  no_zero_in_front : text.head? = some '0' → text = ['0']

/-- Digits without needless zeros at the end. -/
structure TidyPlaces (text : List Char) : Prop where
  digits : ∀ c ∈ text, isDigit c = true
  nonempty : text ≠ []
  no_zero_at_end : text.getLast? ≠ some '0'

/-- An integer part that is tidy, alone or with a point and a fraction part that is tidy. -/
inductive Tidy : List Char → Prop where
  | whole {text : List Char} (h : TidyWhole text) : Tidy text
  | point {text places : List Char} (h : TidyWhole text) (hplaces : TidyPlaces places) : Tidy (text ++ '.' :: places)

/-! ## Positional texts of decimal numbers -/

namespace Decimal

theorem head?_digits {n : Nat} (h : 0 < n) : (digits n).head? ≠ some '0' := by
  induction n using Nat.strongRecOn with
  | ind n ih =>
    rw [digits]
    by_cases hsmall : n < 10
    · rw [Nat.toDigits_of_lt_base hsmall, List.head?_cons, ne_eq, Option.some_inj, Nat.digitChar_eq_zero]
      exact h.ne'
    · rw [Nat.toDigits_of_base_le (by decide) (not_lt.mp hsmall), List.head?_append_of_ne_nil _ Nat.toDigits_ne_nil]
      exact ih (n / 10) (by omega) (by omega)

theorem getLast?_dropZeros (text : List Char) : (dropZeros text).getLast? ≠ some '0' := by
  rw [dropZeros, List.getLast?_reverse]
  have hstop := List.head?_dropWhile_not (fun c => c == '0') text.reverse
  intro hzero
  rw [hzero] at hstop
  exact absurd hstop (by decide)

/-- Dropping the closing zeros of a fraction part makes a text tidy. -/
theorem withFraction_tidy {whole fraction : List Char} (h : TidyWhole whole) (hf : ∀ c ∈ fraction, isDigit c = true) :
    Tidy (withFraction whole fraction) := by
  unfold withFraction
  split
  · exact .whole h
  · next hne =>
    have hkept : ∀ c ∈ dropZeros fraction, isDigit c = true := fun c hc => hf c (mem_of_mem_dropZeros hc)
    exact .point h ⟨hkept, hne, getLast?_dropZeros fraction⟩

/-- Digits in front of the places, with zeros where there are too few digits, so that one digit is left for the integer part. -/
theorem wholePart_tidy {ds : List Char} (places : Nat) (hdigits : ∀ c ∈ ds, isDigit c = true) (hne : ds ≠ [])
    (hhead : ds.head? ≠ some '0') :
    TidyWhole ((List.replicate (places + 1 - ds.length) '0' ++ ds).take
      ((List.replicate (places + 1 - ds.length) '0' ++ ds).length - places)) := by
  have hlength := List.length_pos_iff.mpr hne
  rcases le_or_gt ds.length places with hshort | hlong
  · have hpadded : List.replicate (places + 1 - ds.length) '0' ++ ds =
        ['0'] ++ (List.replicate (places - ds.length) '0' ++ ds) := by
      rw [Nat.succ_sub hshort, List.replicate_succ]
      rfl
    have htake : (['0'] ++ (List.replicate (places - ds.length) '0' ++ ds)).length - places = ['0'].length := by
      simp only [List.length_append, List.length_replicate, List.length_singleton]
      omega
    rw [hpadded, htake, List.take_left]
    exact ⟨by simp [isDigit], by simp, fun _ => rfl⟩
  · have hnone : places + 1 - ds.length = 0 := by omega
    rw [hnone, List.replicate_zero, List.nil_append]
    refine ⟨fun c hc => hdigits c (List.mem_of_mem_take hc), ?_, fun hzero => ?_⟩
    · rw [← List.length_pos_iff, List.length_take]
      omega
    · rw [List.head?_take, if_neg (by omega)] at hzero
      exact absurd hzero hhead

theorem positional_tidy (d : Decimal) (h : 0 < d.coefficient) : Tidy d.positional := by
  have hdigits : ∀ c ∈ digits d.coefficient, isDigit c = true := fun c hc => isDigit_of_mem_digits hc
  have hhead := head?_digits h
  have hne : digits d.coefficient ≠ [] := Nat.toDigits_ne_nil
  have hzeros : ∀ count : Nat, ∀ c ∈ List.replicate count '0', isDigit c = true := fun count c hc => by
    rw [List.eq_of_mem_replicate hc]
    rfl
  unfold positional
  simp only
  split
  · rw [if_neg h.ne']
    refine .whole ⟨List.forall_mem_append.mpr ⟨hdigits, hzeros _⟩, List.append_ne_nil_of_left_ne_nil hne _, fun hzero => ?_⟩
    rw [List.head?_append_of_ne_nil _ hne] at hzero
    exact absurd hzero hhead
  · refine withFraction_tidy (wholePart_tidy _ hdigits hne hhead) fun c hc => ?_
    exact (List.mem_append.mp (List.mem_of_mem_drop hc)).elim (hzeros _ c) (hdigits c)

end Decimal

/-! ## Positional texts of doubles -/

namespace Double

/-- The positional text of a finite double is tidy behind a minus sign, which stands there for the sign bit. -/
theorem positional_eq_tidy {x : Float} (h : x.isFinite = true) :
    ∃ text, positional x = signedText (isNegative x) text ∧ Tidy text := by
  obtain ⟨negative, mantissa, exponent, hcontent, hc, -⟩ := content_of_isFinite h
  have hnegative : isNegative x = negative := by rw [isNegative, hcontent]
  rw [positional, hcontent, hnegative]
  split
  · contradiction
  · contradiction
  · next heq =>
    obtain ⟨rfl, -, -⟩ := Content.finite.inj heq
    exact ⟨['0'], rfl, .whole ⟨by simp [isDigit], by simp, fun _ => rfl⟩⟩
  · next hne heq =>
    obtain ⟨rfl, rfl, rfl⟩ := Content.finite.inj heq
    have hm : 0 < mantissa := Nat.pos_of_ne_zero hne
    exact ⟨_, rfl, Decimal.positional_tidy _ (coefficient_pos hm (shortest_roundsTo hc hm))⟩

end Double

end Reckoner
