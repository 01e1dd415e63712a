import Reckoner.Proofs.Expression.Acceptance
import Reckoner.Proofs.Expression.Normalize
import Reckoner.Proofs.Number.Positional

/-!
# Signed numerals as expressions

A text of visible ASCII characters is its own normal form: no glyph is replaced in it and no blank removed. A numeral
with or without a minus sign is such a text, and its value as an expression is that of the numeral, negated behind the
sign. So the positional text of a finite double evaluates to the double.
-/

namespace Reckoner.Expression

set_option autoImplicit false

/-! ## Visible texts -/

def Visible (text : List Char) : Prop :=
  ∀ c ∈ text, 33 ≤ c.toNat ∧ c.toNat < 127

theorem isBlank_of_visible {c : Char} (h : 33 ≤ c.toNat ∧ c.toNat < 127) : Text.isBlank c = false := by
  obtain ⟨hlow, hhigh⟩ := h
  simp only [Text.isBlank, Text.isWhiteSpace, Bool.or_eq_false_iff, Bool.and_eq_false_iff, decide_eq_false_iff_not,
    beq_eq_false_iff_ne]
  omega

theorem trim_normalize_of_visible {text : List Char} (h : Visible text) : Text.trim (normalize text) = text := by
  have hheads : ∀ c ∈ glyphHeads, 128 ≤ c.toNat := by simp [glyphHeads]
  have hplain : normalize text = text := normalize_of_plain fun c hc hmem => by
    have hge := hheads c hc
    have hlt := (h c hmem).2
    omega
  rw [hplain, Text.trim]
  exact Text.trimBy_eq_self fun c hc => isBlank_of_visible (h c hc)

theorem Numeral.visible (n : Numeral) : Visible n.text := by
  intro c hc
  rcases (isNumeral_iff c).mp (n.all_numeral c hc) with hdigit | hpoint
  · obtain ⟨hlow, hhigh⟩ := (isDigit_iff c).mp hdigit
    omega
  · rw [hpoint]
    decide

theorem visible_signedText (negative : Bool) {text : List Char} (h : Visible text) :
    Visible (signedText negative text) := by
  cases negative with
  | false => exact h
  | true =>
    intro c hc
    rcases List.mem_cons.mp hc with rfl | hc
    · decide
    · exact h c hc

/-! ## Numerals with a sign -/

def signedNumeral (negative : Bool) (n : Numeral) : Sentence :=
  .single (.single (.base (if negative then .minus (.number n) else .bare (.number n))))

theorem signedNumeral_text (negative : Bool) (n : Numeral) :
    (signedNumeral negative n).text = signedText negative n.text := by
  cases negative <;> rfl

theorem signedNumeral_nesting (negative : Bool) (n : Numeral) : (signedNumeral negative n).nesting = 0 := by
  cases negative <;> rfl

theorem signedNumeral_value (s : Settings) (negative : Bool) (n : Numeral) (start : Nat) :
    ((signedNumeral negative n).treeAt start).value s = .ok (if negative then -n.value else n.value) := by
  cases negative with
  | false => simp [signedNumeral, Phrase.treeAt, Phrase.tree, Tree.value, Tree.fold, arithmetic]
  | true => simp [signedNumeral, Phrase.treeAt, Phrase.tree, Tree.value, Tree.fold, arithmetic, bind, Except.bind, pure, Except.pure]

/-- A numeral behind an optional minus sign evaluates to its value, negated behind the sign. -/
theorem evaluateChars_signedNumeral (s : Settings) (negative : Bool) (n : Numeral) :
    evaluateChars s (signedText negative n.text) = .ok (if negative then -n.value else n.value) := by
  have hnormal := trim_normalize_of_visible (visible_signedText negative n.visible)
  have htext := signedNumeral_text negative n
  have hfits : (signedNumeral negative n).nesting ≤ nestingLimit := by
    rw [signedNumeral_nesting]
    exact Nat.zero_le _
  have hparse := parse_of_sentence (m := arithmetic s) hfits (signedNumeral_value s negative n 0)
  rw [evaluateChars_eq s (by rw [hnormal, ← htext]; exact (signedNumeral negative n).text_ne_nil), hnormal, ← htext,
    hparse]

/-- A numeral behind an optional minus sign does not go on with a visible character that goes on with no sum. -/
theorem evaluateChars_unexpected (s : Settings) (negative : Bool) (n : Numeral) {next : Char} {back : List Char}
    (hvisible : Visible (next :: back)) (hstop : (Level.chain .sum).Stops (next :: back)) :
    evaluateChars s (signedText negative n.text ++ next :: back) =
      .error (.malformed (.unexpected next) (signedText negative n.text).length) := by
  have hnormal := trim_normalize_of_visible (List.forall_mem_append.mpr ⟨visible_signedText negative n.visible, hvisible⟩)
  obtain ⟨c, hparse⟩ := parse_unexpected (m := arithmetic s) (p := signedNumeral negative n)
    (by rw [signedNumeral_nesting]; exact Nat.zero_le _) (signedNumeral_value s negative n 0) hstop
  rw [signedNumeral_text] at hparse
  rw [evaluateChars_eq s (by rw [hnormal]; simp), hnormal, hparse]
  rfl

/-- One sign only may stand in front of an atom, so behind a second one a number is missing. -/
theorem parse_two_minuses {α : Type} (m : Meaning α) (text : List Char) :
    parse m ('-' :: '-' :: text) =
      .error ⟨.failed (.malformed .missingNumber 1), (Cursor.start ('-' :: '-' :: text)).skip 1⟩ := by
  have hstart : (Cursor.start ('-' :: '-' :: text)).rest = '-' :: '-' :: text := rfl
  have hrest : ((Cursor.start ('-' :: '-' :: text)).skip 1).rest = '-' :: text := rfl
  have hatom : ∀ inner : Reader α, readAtom m inner ((Cursor.start ('-' :: '-' :: text)).skip 1) =
      .error ⟨.failed (.malformed .missingNumber 1), (Cursor.start ('-' :: '-' :: text)).skip 1⟩ := by
    intro inner
    rw [readAtom_of_head m inner (by simp [hrest]), hrest, match?_cons_eq_none (by decide) text]
    rfl
  rw [parse_eq, readSum_of_readSigned m]
  · rfl
  · rw [readSigned_minus m _ hstart, hatom]
    rfl

theorem evaluateChars_two_minuses (s : Settings) {text : List Char} (h : Visible text) :
    evaluateChars s ('-' :: '-' :: text) = .error (.malformed .missingNumber 1) := by
  have hvisible : Visible ('-' :: '-' :: text) := visible_signedText true (visible_signedText true h)
  have hnormal := trim_normalize_of_visible hvisible
  rw [evaluateChars_eq s (by rw [hnormal]; exact List.cons_ne_nil _ _), hnormal, parse_two_minuses]
  rfl

theorem positional_ne_nil {x : Float} (h : x.isFinite = true) : Double.positional x ≠ [] := by
  obtain ⟨negative, n, htext, -⟩ := Double.positional_reads_back h
  rw [htext, ← signedNumeral_text]
  exact (signedNumeral negative n).text_ne_nil

theorem evaluateChars_positional (s : Settings) {x : Float} (h : x.isFinite = true) :
    evaluateChars s (Double.positional x) = .ok x := by
  obtain ⟨negative, n, htext, hvalue⟩ := Double.positional_reads_back h
  rw [htext, evaluateChars_signedNumeral, ← hvalue]

end Reckoner.Expression
