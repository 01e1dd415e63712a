import Reckoner.Display
import Reckoner.Proofs.Number.Literal

/-!
# Numbers with separators

Without its commas a grouped integer is the integer in decimal. So a numeral with separators in its integer part
becomes, without the commas, a numeral for the same number.
-/

namespace Reckoner

open Expression (Numeral isDigit_iff numeral_cases point_not_mem)
open Literal (isDigit natOfDigits)

set_option autoImplicit false

/-! ## Grouped integers -/

namespace Radix

theorem filter_groupDigits {text : List Char} (h : ',' ∉ text) : (groupDigits text).filter (· != ',') = text := by
  induction text using groupDigits.induct with
  | case1 => rfl
  | case2 c =>
    simp only [List.mem_singleton] at h
    simp [groupDigits, Ne.symm h]
  | case3 c d rest hgroup ih =>
    rw [List.mem_cons, not_or] at h
    rw [groupDigits, if_pos hgroup, List.filter_cons_of_pos (by simpa using Ne.symm h.1),
      List.filter_cons_of_neg (by simp), ih h.2]
  | case4 c d rest hgroup ih =>
    rw [List.mem_cons, not_or] at h
    rw [groupDigits, if_neg hgroup, List.filter_cons_of_pos (by simpa using Ne.symm h.1), ih h.2]

theorem digits_ten (n : Nat) : digits 10 n = Decimal.digits n := by
  refine (List.map_congr_left fun c hc => ?_).trans (List.map_id _)
  have hdigit := (isDigit_iff c).mp (Decimal.isDigit_of_mem_digits hc)
  have hsmall : ¬ (c.val ≥ 'a'.val ∧ c.val ≤ 'z'.val) := by
    intro hbetween
    have hlow : 97 ≤ c.toNat := UInt32.le_iff_toNat_le.mp hbetween.1
    omega
  exact dif_neg hsmall

theorem filter_grouped (n : Nat) : (grouped n).filter (· != ',') = Decimal.digits n := by
  rw [grouped, if_neg (by omega), Int.natAbs_natCast, digits_ten]
  refine filter_groupDigits fun hmem => ?_
  exact absurd (Decimal.isDigit_of_mem_digits hmem) (by decide)

end Radix

namespace Display

theorem groupThousands_numeral (negative : Bool) (n : Numeral) :
    groupThousands (signedText negative n.text) =
      match Literal.int? (n.text.takeWhile (· != '.')) with
      | some k => .ok (signedText negative (Radix.grouped k ++ n.text.dropWhile (· != '.')))
      | none => .error .unreadable := by
  cases negative with
  | true => rfl
  | false =>
    obtain ⟨c, rest, htext, hnumeral⟩ := n.text_cons
    simp only [signedText, Bool.false_eq_true, if_false, htext]
    unfold groupThousands
    split
    next heq =>
    split at heq
    · next hminus =>
      obtain ⟨rfl, -⟩ := List.cons.inj hminus
      contradiction
    · obtain ⟨rfl, rfl⟩ := Prod.mk.inj heq
      rfl

theorem filter_signedText (negative : Bool) (text : List Char) :
    (signedText negative text).filter (· != ',') = signedText negative (text.filter (· != ',')) := by
  cases negative <;> rfl

theorem filter_numeral {text : List Char} (h : ∀ c ∈ text, Expression.isNumeral c = true) :
    text.filter (· != ',') = text := by
  refine List.filter_eq_self.mpr fun c hc => ?_
  rw [bne_iff_ne]
  rintro rfl
  exact absurd (h _ hc) (by decide)

theorem natOfDigits_digits_append (k : Nat) {whole : List Char} (h : natOfDigits whole = k) (rest : List Char) :
    natOfDigits (Decimal.digits k ++ rest) = natOfDigits (whole ++ rest) := by
  have hdigits : natOfDigits (Decimal.digits k) = natOfDigits whole := (Decimal.natOfDigits_digits k).trans h.symm
  unfold natOfDigits at hdigits ⊢
  rw [Nat.ofDigitChars_append, Nat.ofDigitChars_append, hdigits]

/-- Written anew, the integer part of a numeral gives a numeral for the same number. -/
theorem rewritten_numeral (n : Numeral) :
    ∃ m : Numeral, m.text = Decimal.digits (natOfDigits (n.text.takeWhile (· != '.'))) ++ n.text.dropWhile (· != '.') ∧
      m.exact = n.exact := by
  have hdigits : ∀ k, ∀ c ∈ Decimal.digits k, isDigit c = true := fun k c hc => Decimal.isDigit_of_mem_digits hc
  have hne : ∀ k, Decimal.digits k ≠ [] := fun k => Nat.toDigits_ne_nil
  rcases numeral_cases n.all_numeral with hd | ⟨whole, fraction, htext, hw, -⟩
  · have hall : ∀ c ∈ n.text, (c != '.') = true := by
      intro c hc
      rw [bne_iff_ne]
      rintro rfl
      exact point_not_mem hd hc
    rw [List.takeWhile_eq_self_iff.mpr hall, List.dropWhile_eq_nil_iff.mpr hall, List.append_nil]
    refine ⟨Decimal.ofDigits _ (hne _) (hdigits _), rfl, ?_⟩
    rw [Decimal.exact_ofDigits, Decimal.natOfDigits_digits, Numeral.exact_of_digits hd]
  · have hf := Numeral.digits_of_point htext
    obtain ⟨htake, hdrop⟩ := Text.split_first (point_not_mem hw) fraction
    rw [htext, htake, hdrop]
    refine ⟨Decimal.ofParts _ fraction (hne _) (hdigits _) hf, rfl, ?_⟩
    rw [Decimal.exact_ofParts, natOfDigits_digits_append _ rfl, Numeral.exact_of_point htext hw]

/-- Without the commas a numeral with separators, behind a minus sign or not, is a numeral for the same number. -/
theorem withSeparators_numeral (negative : Bool) (n : Numeral) :
    ∃ m : Numeral, (withSeparators (signedText negative n.text)).filter (· != ',') = signedText negative m.text ∧
      m.exact = n.exact := by
  have hwhole : ∀ c ∈ n.text.takeWhile (· != '.'), isDigit c = true := by
    intro c hc
    have hne := List.mem_takeWhile_imp (p := (· != '.')) hc
    have hnumeral := n.all_numeral c (List.takeWhile_subset _ hc)
    exact ((Expression.isNumeral_iff c).mp hnumeral).resolve_right (bne_iff_ne.mp hne)
  have hrest : ∀ c ∈ n.text.dropWhile (· != '.'), Expression.isNumeral c = true := fun c hc =>
    n.all_numeral c ((List.dropWhile_sublist _).subset hc)
  rw [withSeparators, groupThousands_numeral, Literal.int?_digits hwhole]
  split
  · next grouped heq =>
    split at heq
    · next k hk =>
      obtain ⟨-, hvalue⟩ := Option.ite_none_right_eq_some.mp hk
      obtain rfl := Option.some.inj hvalue
      obtain ⟨m, htext, hexact⟩ := rewritten_numeral n
      refine ⟨m, ?_, hexact⟩
      rw [← Except.ok.inj heq, filter_signedText, List.filter_append, Radix.filter_grouped, filter_numeral hrest, htext]
    · contradiction
  · exact ⟨n, by rw [filter_signedText, filter_numeral n.all_numeral], rfl⟩

end Display

end Reckoner
