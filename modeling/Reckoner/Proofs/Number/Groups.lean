import Reckoner.Proofs.Number.Separators
import Reckoner.Proofs.Number.Tidy

/-!
# Groups of three digits

Grouping cuts an integer part into groups of three digits from its end, with what is left over in front, and puts a comma
before every group. The integer part is read as an integer and written anew before that. Where it has no needless zeros and
not too many digits, it comes out as it was.
-/

namespace Reckoner

open Literal (isDigit natOfDigits maxIntegerDigits)

set_option autoImplicit false

/-! ## Groups -/

theorem filter_comma {text : List Char} (h : ',' ∉ text) : text.filter (· != ',') = text := by
  refine List.filter_eq_self.mpr fun c hc => bne_iff_ne.mpr ?_
  rintro rfl
  exact h hc

/-- The digits with a comma before every group of three digits counted from the end, and none in front. -/
def Grouped (whole shown : List Char) : Prop :=
  ∃ (lead : List Char) (groups : List (List Char)), whole = lead ++ groups.flatten ∧
    shown = lead ++ groups.flatMap (',' :: ·) ∧ 1 ≤ lead.length ∧ lead.length ≤ 3 ∧ ∀ group ∈ groups, group.length = 3

theorem length_flatten_groups {groups : List (List Char)} (h : ∀ group ∈ groups, group.length = 3) :
    groups.flatten.length = 3 * groups.length := by
  induction groups with
  | nil => rfl
  | cons group groups ih =>
    obtain ⟨hgroup, hgroups⟩ := List.forall_mem_cons.mp h
    rw [List.flatten_cons, List.length_append, hgroup, ih hgroups, List.length_cons]
    omega

theorem groupDigits_grouped {text : List Char} (hne : text ≠ []) : Grouped text (Radix.groupDigits text) := by
  induction text using Radix.groupDigits.induct with
  | case1 => exact absurd rfl hne
  | case2 c => exact ⟨[c], [], rfl, rfl, Nat.le_refl 1, Nat.le_add_left 1 2, List.forall_mem_nil _⟩
  | case3 c d rest hboundary ih =>
    obtain ⟨lead, groups, hwhole, hshown, hlow, hhigh, hgroups⟩ := ih (List.cons_ne_nil _ _)
    have hlength := congrArg List.length hwhole
    rw [List.length_cons, List.length_append, length_flatten_groups hgroups] at hlength
    have hlead : lead.length = 3 := by omega
    refine ⟨[c], lead :: groups, ?_, ?_, Nat.le_refl 1, Nat.le_add_left 1 2, List.forall_mem_cons.mpr ⟨hlead, hgroups⟩⟩
    · rw [hwhole]
      rfl
    · rw [Radix.groupDigits, if_pos hboundary, hshown]
      rfl
  | case4 c d rest hinside ih =>
    obtain ⟨lead, groups, hwhole, hshown, hlow, hhigh, hgroups⟩ := ih (List.cons_ne_nil _ _)
    have hlength := congrArg List.length hwhole
    rw [List.length_cons, List.length_append, length_flatten_groups hgroups] at hlength
    refine ⟨c :: lead, groups, ?_, ?_, Nat.le_add_left 1 _, ?_, hgroups⟩
    · rw [hwhole]
      rfl
    · rw [Radix.groupDigits, if_neg hinside, hshown]
      rfl
    · rw [List.length_cons]
      omega

theorem Grouped.filter {whole shown : List Char} (h : Grouped whole shown) (hcomma : ',' ∉ whole) :
    shown.filter (· != ',') = whole := by
  obtain ⟨lead, groups, rfl, rfl, -, -, -⟩ := h
  rw [List.mem_append, not_or] at hcomma
  obtain ⟨hlead, hgroups⟩ := hcomma
  rw [List.filter_append, filter_comma hlead]
  congr 1
  induction groups with
  | nil => rfl
  | cons group groups ih =>
    rw [List.flatten_cons, List.mem_append, not_or] at hgroups
    rw [List.flatMap_cons, List.cons_append, List.filter_cons_of_neg (by decide), List.filter_append, filter_comma hgroups.1,
      ih hgroups.2, List.flatten_cons]

/-! ## Digits written anew -/

theorem digitChar_of_isDigit {c : Char} (h : isDigit c = true) : c.toNat - 48 < 10 ∧ Nat.digitChar (c.toNat - 48) = c := by
  obtain ⟨hlow, hhigh⟩ := (Expression.isDigit_iff c).mp h
  refine ⟨by omega, Char.toNat_inj.mp ?_⟩
  rw [Nat.toNat_digitChar_of_lt_ten (by omega)]
  omega

/-- Digits behind those of a positive number are the last digits of the number that they make with it. -/
theorem digits_append {text : List Char} (h : ∀ c ∈ text, isDigit c = true) {n : Nat} (hn : 0 < n) :
    Decimal.digits n ++ text = Decimal.digits (Nat.ofDigitChars 10 text n) := by
  induction text generalizing n with
  | nil => simp
  | cons c text ih =>
    obtain ⟨hc, htext⟩ := List.forall_mem_cons.mp h
    obtain ⟨hsmall, hchar⟩ := digitChar_of_isDigit hc
    have hstep := Nat.toDigits_append_toDigits (b := 10) (by decide) hn hsmall
    rw [Nat.toDigits_of_lt_base hsmall, hchar] at hstep
    calc Decimal.digits n ++ c :: text = (Decimal.digits n ++ [c]) ++ text := by rw [List.append_assoc]; rfl
      _ = Decimal.digits (10 * n + (c.toNat - 48)) ++ text := congrArg (· ++ text) hstep
      _ = Decimal.digits (Nat.ofDigitChars 10 (c :: text) n) := by
        rw [ih htext (by omega), Nat.ofDigitChars_cons]
        rfl

namespace TidyWhole

variable {whole : List Char}

/-- An integer part without needless zeros is the integer in decimal. -/
theorem digits_natOfDigits (h : TidyWhole whole) : Decimal.digits (natOfDigits whole) = whole := by
  cases whole with
  | nil => exact absurd rfl h.nonempty
  | cons c text =>
    obtain ⟨hc, htext⟩ := List.forall_mem_cons.mp h.digits
    obtain ⟨hsmall, hchar⟩ := digitChar_of_isDigit hc
    by_cases hzero : c = '0'
    · subst hzero
      rw [h.no_zero_in_front rfl]
      rfl
    · have hpos : 0 < c.toNat - 48 := by
        by_contra hnone
        rw [show c.toNat - 48 = 0 by omega] at hchar
        exact hzero hchar.symm
      have hvalue : natOfDigits (c :: text) = Nat.ofDigitChars 10 text (c.toNat - 48) := by
        rw [natOfDigits, Nat.ofDigitChars_cons, Nat.mul_zero, Nat.zero_add]
        rfl
      rw [hvalue, ← digits_append htext hpos, Decimal.digits, Nat.toDigits_of_lt_base hsmall, hchar]
      rfl

theorem no_point (h : TidyWhole whole) : '.' ∉ whole :=
  Expression.point_not_mem h.digits

theorem no_comma (h : TidyWhole whole) : ',' ∉ whole :=
  fun hmem => absurd (h.digits _ hmem) (by decide)

end TidyWhole

/-! ## Texts with groups -/

/-- No fraction part, or a point and a tidy one. -/
inductive TidyFraction : List Char → Prop where
  | none : TidyFraction []
  | point {places : List Char} (h : TidyPlaces places) : TidyFraction ('.' :: places)

theorem Tidy.parts {text : List Char} (h : Tidy text) :
    ∃ whole fraction, text = whole ++ fraction ∧ TidyWhole whole ∧ TidyFraction fraction := by
  cases h with
  | whole h => exact ⟨text, [], (List.append_nil text).symm, h, .none⟩
  | point h hplaces => exact ⟨_, _, rfl, h, .point hplaces⟩

theorem TidyFraction.no_comma {fraction : List Char} (h : TidyFraction fraction) : ',' ∉ fraction := by
  cases h with
  | none => exact List.not_mem_nil
  | point h =>
    intro hmem
    rcases List.mem_cons.mp hmem with hpoint | hmem
    · exact absurd hpoint (by decide)
    · exact absurd (h.digits _ hmem) (by decide)

theorem split_tidy {whole fraction : List Char} (h : TidyWhole whole) (hf : TidyFraction fraction) :
    (whole ++ fraction).takeWhile (· != '.') = whole ∧ (whole ++ fraction).dropWhile (· != '.') = fraction := by
  cases hf with
  | none =>
    have hall : ∀ c ∈ whole, (c != '.') = true := fun c hc => bne_iff_ne.mpr fun heq => h.no_point (heq ▸ hc)
    rw [List.append_nil]
    exact ⟨List.takeWhile_eq_self_iff.mpr hall, List.dropWhile_eq_nil_iff.mpr hall⟩
  | point _ => exact Text.split_first h.no_point _

namespace Display

theorem grouped_tidy {whole : List Char} (h : TidyWhole whole) :
    Radix.grouped (natOfDigits whole : Nat) = Radix.groupDigits whole := by
  rw [Radix.grouped, if_neg (by omega), Int.natAbs_natCast, Radix.digits_ten, h.digits_natOfDigits]

/-- The integer part of a tidy text is put into groups, unless it is too long for an integer. -/
theorem groupThousands_parts (negative : Bool) {whole fraction : List Char} (h : TidyWhole whole) (hf : TidyFraction fraction)
    (hlength : whole.length ≤ maxIntegerDigits) :
    groupThousands (signedText negative (whole ++ fraction)) =
      .ok (signedText negative (Radix.groupDigits whole ++ fraction)) := by
  have hnumeral : ∃ n : Expression.Numeral, n.text = whole ++ fraction := by
    cases hf with
    | none => exact ⟨Decimal.ofDigits whole h.nonempty h.digits, (List.append_nil whole).symm⟩
    | point hplaces => exact ⟨Decimal.ofParts whole _ h.nonempty h.digits hplaces.digits, rfl⟩
  obtain ⟨n, htext⟩ := hnumeral
  obtain ⟨htake, hdrop⟩ := split_tidy h hf
  rw [← htext, groupThousands_numeral, htext, htake, hdrop, Literal.int?_digits h.digits, if_pos ⟨h.nonempty, hlength⟩]
  simp only [grouped_tidy h]

theorem filter_groups (negative : Bool) {whole fraction : List Char} (h : TidyWhole whole) (hf : TidyFraction fraction) :
    (signedText negative (Radix.groupDigits whole ++ fraction)).filter (· != ',') = signedText negative (whole ++ fraction) := by
  rw [filter_signedText, List.filter_append, Radix.filter_groupDigits h.no_comma, filter_comma hf.no_comma]

end Display

end Reckoner
