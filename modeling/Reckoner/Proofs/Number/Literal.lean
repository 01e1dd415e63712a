import Reckoner.Proofs.Number.Positional
import Reckoner.Proofs.Text.Replace

/-!
# Tolerant readings of plain texts

White space, underscores and the digits of other scripts are all that the tolerant readings add: a text without them
is read as it is. So an integer in decimal reads back, as long as it does not have too many digits.
-/

namespace Reckoner.Literal

open Expression (isDigit_iff)

set_option autoImplicit false

variable {text : List Char}

/-- A text without anything that the tolerant readings replace or drop. -/
def Plain (text : List Char) : Prop :=
  ∀ c ∈ text, c.toNat < 128 ∧ Text.isWhiteSpace c = false ∧ c ≠ '_'

theorem dropUnderscores?_plain (h : Plain text) (afterDigit : Bool) : dropUnderscores? afterDigit text = some text := by
  induction text generalizing afterDigit with
  | nil => simp only [dropUnderscores?]
  | cons c text ih =>
    obtain ⟨-, -, hplain⟩ := h c List.mem_cons_self
    have hrest := ih (fun d hd => h d (List.mem_cons_of_mem _ hd)) (isDigit c)
    rw [dropUnderscores?, hrest]
    · rfl
    · exact fun heq => absurd heq hplain

theorem plainForm?_plain (h : Plain text) : plainForm? text = some text := by
  have hfold : Text.foldNumeral text = text :=
    (List.map_congr_left fun c hc => if_pos (h c hc).1).trans (List.map_id text)
  have htrim : Text.trimBy Text.isWhiteSpace text = text := Text.trimBy_eq_self fun c hc => (h c hc).2.1
  rw [plainForm?, hfold, htrim]
  exact dropUnderscores?_plain h false

/-! ## Runs of digits -/

theorem plain_digits (h : ∀ c ∈ text, isDigit c = true) : Plain text := by
  intro c hc
  obtain ⟨hlow, hhigh⟩ := (isDigit_iff c).mp (h c hc)
  refine ⟨by omega, ?_, ?_⟩
  · simp only [Text.isWhiteSpace, Bool.or_eq_false_iff, Bool.and_eq_false_iff, decide_eq_false_iff_not,
      beq_eq_false_iff_ne]
    omega
  · rintro rfl
    exact absurd (h _ hc) (by decide)

theorem plain_signedText (negative : Bool) (h : Plain text) : Plain (signedText negative text) := by
  cases negative with
  | true => exact List.forall_mem_cons.mpr ⟨by decide, h⟩
  | false => exact h

theorem takeSign_signedText (negative : Bool) (h : ∀ c ∈ text, isDigit c = true) :
    takeSign (signedText negative text) = (negative, text) := by
  cases negative with
  | true => rfl
  | false =>
    cases text with
    | nil => rfl
    | cons c text =>
      have hdigit := h c List.mem_cons_self
      simp only [signedText, Bool.false_eq_true, if_false]
      unfold takeSign
      split
      · next heq =>
        obtain ⟨rfl, -⟩ := List.cons.inj heq
        contradiction
      · next heq =>
        obtain ⟨rfl, -⟩ := List.cons.inj heq
        contradiction
      · rfl

/-- A run of digits, with or without a minus sign, reads as its number, unless it is empty or too long. -/
theorem int?_signedText (negative : Bool) (h : ∀ c ∈ text, isDigit c = true) :
    int? (signedText negative text) =
      if text ≠ [] ∧ text.length ≤ maxIntegerDigits then some (Double.signed negative (natOfDigits text)) else none := by
  have hall : text.all isDigit = true := List.all_eq_true.mpr h
  have hplain := plain_signedText negative (plain_digits h)
  simp only [int?, plainForm?_plain hplain, takeSign_signedText negative h, signedDigits?, hall]
  by_cases hnil : text = []
  · simp [hnil]
  · simp [hnil]

theorem int?_digits (h : ∀ c ∈ text, isDigit c = true) :
    int? text = if text ≠ [] ∧ text.length ≤ maxIntegerDigits then some (natOfDigits text : Int) else none :=
  int?_signedText false h

/-! ## Integers in decimal -/

theorem toList_toString (n : Int) : (toString n).toList = signedText (decide (n < 0)) (Decimal.digits n.natAbs) := by
  cases n with
  | ofNat n => exact Nat.toList_repr
  | negSucc n =>
    have hnegative : decide (Int.negSucc n < 0) = true := decide_eq_true (Int.negSucc_lt_zero n)
    have htext : toString (Int.negSucc n) = "-" ++ (n + 1).repr := rfl
    rw [hnegative, htext, String.toList_append, Nat.toList_repr]
    rfl

theorem not_short_pow {n : Nat} (h : maxIntegerDigits ≤ n) : ¬ Short (10 ^ n) := by
  rw [Short, Int.natAbs_pow]
  exact not_lt.mpr (Nat.pow_le_pow_right (by decide) h)

theorem int?_toString (n : Int) : int? (toString n).toList = if Short n then some n else none := by
  have hdigits : ∀ c ∈ Decimal.digits n.natAbs, isDigit c = true := fun c hc => Decimal.isDigit_of_mem_digits hc
  have hlength : (Decimal.digits n.natAbs).length ≤ maxIntegerDigits ↔ Short n :=
    Nat.length_toDigits_le_iff (by decide) (by decide)
  have hsigned : Double.signed (decide (n < 0)) n.natAbs = n := by
    simp only [Double.signed, decide_eq_true_eq]
    split <;> omega
  have hne : Decimal.digits n.natAbs ≠ [] := Nat.toDigits_ne_nil
  rw [toList_toString, int?_signedText _ hdigits, Decimal.natOfDigits_digits, hsigned]
  simp only [hlength, hne, ne_eq, not_false_eq_true, true_and]

end Reckoner.Literal
